import WasixEth.Execution.Evm
import WasixEth.Lib.Machine
import WasixEth.Storage.BatchWriter

/-! # Applying changes to the state

`StateApplier` writes the changes of one transaction to the batch, and
`BlockProcessor` those of the block itself. The plain and the hashed state,
which nothing reads, are left out.
-/

namespace WasixEth

open Storage Routine BatchWriter

variable [Keccak256]

/-- Put an address into a sorted set. -/
def insertAddress (address : Address) : List Address → List Address
  | [] => [address]
  | first :: rest =>
      if address = first then first :: rest
      else if address.bytes < first.bytes then address :: first :: rest
      else first :: insertAddress address rest

namespace StateApplier

def getOrMaterializeAccount (address : Address) (stateRoot : Option B256) : BatchM TrieAccount := do
  let found ← account address stateRoot
  return found.getD .blank

/-- Change one field of an account. -/
def setField (stateRoot : Option B256) (address : Address) (change : TrieAccount → TrieAccount) :
    BatchM Unit := do
  let found ← getOrMaterializeAccount address stateRoot
  updateAccount address (change found)

def applyBalances (stateRoot : Option B256) : List (Address × U256) → BatchM Unit
  | [] => return ()
  | (address, balance) :: rest => do
      setField stateRoot address fun account => { account with balance }
      applyBalances stateRoot rest

def applyNonces (stateRoot : Option B256) : List (Address × UInt64) → BatchM Unit
  | [] => return ()
  | (address, nonce) :: rest => do
      setField stateRoot address fun account => { account with nonce }
      applyNonces stateRoot rest

def applyCodes (stateRoot : Option B256) : List (Address × Bytes) → BatchM Unit
  | [] => return ()
  | (address, code) :: rest => do
      let found ← getOrMaterializeAccount address stateRoot
      let codeHash ← hashed code
      insertBytecode codeHash code
      updateAccount address { found with codeHash }
      applyCodes stateRoot rest

def applyResets : List Address → BatchM Unit
  | [] => return ()
  | address :: rest => do
      resetStorage address
      applyResets rest

def applyStorages : List ((Address × B256) × U256) → BatchM Unit
  | [] => return ()
  | ((address, slot), value) :: rest => do
      updateStorage address slot value
      applyStorages rest

/-- `SputnikBackend::is_account_empty`. -/
def isAccountEmpty (account : TrieAccount) : Bool :=
  account.nonce = 0 && account.balance = 0 && account.codeHash = keccak256Empty

/-- Settle one account: delete it, remove it as empty, or write its storage
root. The branch for an account that is not there never writes, since a blank
account is empty. -/
def settleAccount (changes : OverlayedChangeSet) (eip161 : Bool) (stateRoot : Option B256)
    (address : Address) : BatchM Unit := do
  if address ∈ changes.deletes then do
    let _ ← account address stateRoot
    removeAccount address
  else do
    let found ← account address stateRoot
    match found with
    | none =>
        if isAccountEmpty .blank then return () else updateAccount address .blank
    | some found => do
        let storageRoot ← calculateStorageRoot address stateRoot
        let settled : TrieAccount := { found with
          storageRoot
          codeHash := if found.codeHash = B256.zero then keccak256Empty else found.codeHash }
        if eip161 && isAccountEmpty settled then removeAccount address
        else updateAccount address settled

def settleAccounts (changes : OverlayedChangeSet) (eip161 : Bool) (stateRoot : Option B256) :
    List Address → BatchM Unit
  | [] => return ()
  | address :: rest => do
      settleAccount changes eip161 stateRoot address
      settleAccounts changes eip161 stateRoot rest

/-- Every address the changes name, in order. -/
def affectedAccounts (changes : OverlayedChangeSet) : List Address :=
  (changes.balances.map Prod.fst ++ changes.nonces.map Prod.fst ++ changes.codes.map Prod.fst ++
    changes.storageResets ++ changes.storages.map (·.1.1) ++ changes.touched ++
    changes.deletes).foldl (fun addresses address => insertAddress address addresses) []

def applyChangeset (changes : OverlayedChangeSet) (eip161 : Bool) (stateRoot : Option B256) :
    BatchM Unit := do
  applyBalances stateRoot changes.balances
  applyNonces stateRoot changes.nonces
  applyCodes stateRoot changes.codes
  applyResets changes.storageResets
  applyStorages changes.storages
  settleAccounts changes eip161 stateRoot (affectedAccounts changes)

end StateApplier

namespace BlockProcessor

/-- `BEACON_ROOTS_ADDRESS`. -/
def beaconRootsAddress : Address :=
  ⟨[0x00, 0x0F, 0x3d, 0xf6, 0xD7, 0x32, 0x80, 0x7E, 0xf1, 0x31, 0x9f, 0xB7, 0xB8, 0xbB, 0x85, 0x22,
    0xd0, 0xBe, 0xac, 0x02], rfl⟩

/-- `U256::from_be_bytes`. -/
def wordOf (word : B256) : U256 := BitVec.ofNat 256 (Rlp.fromBytes word.bytes)

def ensureSystemContractCode (address : Address) (code : Bytes) (stateRoot : Option B256) :
    BatchM Unit := do
  let found ← account address stateRoot
  let codeHash ← hashed code
  match found with
  | none => do
      insertBytecode codeHash code
      updateAccount address { TrieAccount.blank with nonce := 1, codeHash }
  | some found =>
      if found.codeHash ≠ codeHash then do
        insertBytecode codeHash code
        updateAccount address { found with codeHash }
      else return ()

/-- `apply_beacon_root`, called from Cancun on. -/
def applyBeaconRoot [Evm] (beaconRoot : B256) (timestamp : Nat) (stateRoot : Option B256) :
    BatchM Unit := do
  ensureSystemContractCode beaconRootsAddress Evm.beaconRootsCode stateRoot
  let index := timestamp % 8191
  updateStorage beaconRootsAddress (B256.ofNat index) (BitVec.ofNat 256 timestamp)
  updateStorage beaconRootsAddress (B256.ofNat (index + 8191)) (wordOf beaconRoot)
  markAccountTouched beaconRootsAddress

/-- `saturating_add`. -/
def saturatingAdd (a : U256) (b : Nat) : U256 := BitVec.ofNat 256 (min (a.toNat + b) (2 ^ 256 - 1))

def withCode (account : TrieAccount) : TrieAccount :=
  { account with
    codeHash := if account.codeHash = B256.zero then keccak256Empty else account.codeHash }

def processWithdrawals (stateRoot : Option B256) : List Withdrawal → BatchM Unit
  | [] => return ()
  | withdrawal :: rest => do
      let found ← account withdrawal.address stateRoot
      let before : TrieAccount := found.getD .blank
      let storageRoot ← calculateStorageRoot withdrawal.address stateRoot
      updateAccount withdrawal.address (withCode { before with
        balance := saturatingAdd before.balance (withdrawal.amount * 1000000000)
        storageRoot })
      processWithdrawals stateRoot rest

/-- Credit an account of a block before the merge. -/
def reward (stateRoot : Option B256) (address : Address) (amount : Nat) : BatchM Unit := do
  let found ← account address stateRoot
  let before := withCode (found.getD .blank)
  updateAccount address { before with balance := saturatingAdd before.balance amount }

/-- `saturating_mul`. -/
def saturatingMul (a b : Nat) : Nat := min (a * b) (2 ^ 256 - 1)

/-- The share of an ommer is computed in words of 64 bits. -/
def ommerReward (mode : Machine.Mode) (blockReward blockNumber ommerNumber : Nat) :
    Except Machine.Fault Nat := do
  let limit ← Machine.add mode 64 8 ommerNumber
  let share ← Machine.sub mode 64 limit blockNumber
  return saturatingMul blockReward share / 8

/-- A fault stops the block. -/
def liftFault {α : Type} : Except Machine.Fault α → BatchM α
  | .ok a => return a
  | .error _ => fail "arithmetic operation overflowed"

def rewardOmmers (mode : Machine.Mode) (stateRoot : Option B256) (blockNumber blockReward : Nat) :
    List Header → BatchM Unit
  | [] => return ()
  | ommer :: rest => do
      let amount ← liftFault (ommerReward mode blockReward blockNumber ommer.number)
      reward stateRoot ommer.beneficiary amount
      rewardOmmers mode stateRoot blockNumber blockReward rest

def blockReward (fork : Hardfork) : Nat :=
  if .paris ≤ fork then 0
  else if .constantinople ≤ fork then 2 * 10 ^ 18
  else if .byzantium ≤ fork then 3 * 10 ^ 18
  else 5 * 10 ^ 18

/-- `apply_block_rewards` in a build that wraps around or one that stops. -/
def applyBlockRewardsIn (mode : Machine.Mode) (fork : Hardfork) (beneficiary : Address)
    (ommers : List Header) (stateRoot : Option B256) (blockNumber : Nat) : BatchM Unit :=
  if .paris ≤ fork then return ()
  else do
    let amount := blockReward fork
    reward stateRoot beneficiary (amount + ommers.length * (amount / 32))
    rewardOmmers mode stateRoot blockNumber amount ommers

/-- `apply_block_rewards` as it is released. -/
def applyBlockRewards (fork : Hardfork) (beneficiary : Address) (ommers : List Header)
    (stateRoot : Option B256) (blockNumber : Nat) : BatchM Unit :=
  applyBlockRewardsIn .wrapping fork beneficiary ommers stateRoot blockNumber

end BlockProcessor

end WasixEth
