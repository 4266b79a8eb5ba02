import Mathlib.Data.List.Sort
import WasixEth.Types

/-! # Chain configuration and fork activation -/

namespace WasixEth

/-- The blob limits of one fork. -/
structure BlobParams where
  targetBlobCount : Nat
  maxBlobCount : Nat
  updateFraction : Nat
  deriving DecidableEq, Inhabited

structure ChainConfig where
  chainId : Nat
  homesteadBlock : Option Nat
  daoForkBlock : Option Nat
  eip150Block : Option Nat
  eip155Block : Option Nat
  eip158Block : Option Nat
  byzantiumBlock : Option Nat
  constantinopleBlock : Option Nat
  petersburgBlock : Option Nat
  istanbulBlock : Option Nat
  muirGlacierBlock : Option Nat
  berlinBlock : Option Nat
  londonBlock : Option Nat
  arrowGlacierBlock : Option Nat
  grayGlacierBlock : Option Nat
  mergeNetsplitBlock : Option Nat
  shanghaiTime : Option Nat
  cancunTime : Option Nat
  pragueTime : Option Nat
  terminalTotalDifficulty : Option U256
  cancunBlobs : Option BlobParams
  pragueBlobs : Option BlobParams
  deriving DecidableEq, Inhabited

/-- The point from which a fork is active: a block number or a timestamp. -/
structure ForkPoint where
  value : Nat
  isTimestamp : Bool
  fork : Hardfork

/-- Block numbers come before timestamps. -/
def ForkPoint.le (a b : ForkPoint) : Prop :=
  (!a.isTimestamp && b.isTimestamp) = true ∨ (a.isTimestamp = b.isTimestamp ∧ a.value ≤ b.value)

instance : DecidableRel ForkPoint.le := fun _ _ =>
  inferInstanceAs (Decidable (_ ∨ (_ ∧ _)))

def ForkPoint.block (fork : Hardfork) (value : Option Nat) : List ForkPoint :=
  value.toList.map fun number => ⟨number, false, fork⟩

def ForkPoint.time (fork : Hardfork) (value : Option Nat) : List ForkPoint :=
  value.toList.map fun timestamp => ⟨timestamp, true, fork⟩

def ChainConfig.forks (config : ChainConfig) : List ForkPoint :=
  ForkPoint.block .homestead config.homesteadBlock ++
  ForkPoint.block .tangerineWhistle config.eip150Block ++
  ForkPoint.block .spuriousDragon config.eip155Block ++
  ForkPoint.block .spuriousDragon config.eip158Block ++
  ForkPoint.block .byzantium config.byzantiumBlock ++
  ForkPoint.block .constantinople config.constantinopleBlock ++
  ForkPoint.block .petersburg config.petersburgBlock ++
  ForkPoint.block .istanbul config.istanbulBlock ++
  ForkPoint.block .muirGlacier config.muirGlacierBlock ++
  ForkPoint.block .berlin config.berlinBlock ++
  ForkPoint.block .london config.londonBlock ++
  ForkPoint.block .arrowGlacier config.arrowGlacierBlock ++
  ForkPoint.block .grayGlacier config.grayGlacierBlock ++
  ForkPoint.block .paris config.mergeNetsplitBlock ++
  ForkPoint.time .shanghai config.shanghaiTime ++
  ForkPoint.time .cancun config.cancunTime ++
  ForkPoint.time .prague config.pragueTime

namespace Hardfork

/-- The last fork reached before the first one that is not. -/
def lastActive (number timestamp : Nat) (active : Hardfork) : List ForkPoint → Hardfork
  | [] => active
  | point :: rest =>
      if point.value ≤ (if point.isTimestamp then timestamp else number) then
        lastActive number timestamp point.fork rest
      else active

def getActiveForkWithTotalDifficulty (config : ChainConfig) (number timestamp : Nat)
    (totalDifficulty : Option U256) : Hardfork :=
  let active :=
    lastActive number timestamp .frontier (config.forks.insertionSort ForkPoint.le)
  if active < .paris then
    match config.terminalTotalDifficulty, totalDifficulty with
    | some ttd, some td => if ttd ≤ td then .paris else active
    | _, _ => active
  else active

def getActiveFork (config : ChainConfig) (number timestamp : Nat) : Hardfork :=
  getActiveForkWithTotalDifficulty config number timestamp none

def isCancunActive (fork : Hardfork) : Bool := .cancun ≤ fork

def blobParams (config : ChainConfig) : Hardfork → Option BlobParams
  | .cancun => config.cancunBlobs
  | .prague => config.pragueBlobs
  | _ => none

end Hardfork

def targetBlobGasPerBlock : Nat := 393216

def maxBlobGasPerBlock : Nat := 786432

def dataGasPerBlob : Nat := 131072

def calcExcessBlobGas (parentExcessBlobGas parentBlobGasUsed : Option Nat) (target : Nat) : Nat :=
  parentExcessBlobGas.getD 0 + parentBlobGasUsed.getD 0 - target

end WasixEth
