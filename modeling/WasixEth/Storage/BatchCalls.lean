import WasixEth.Storage.StorageRoot

/-! # Calls on a batch

Calls on a batch, with the storage roots that they have shown so far, beside
the overlay that they should amount to: the last account written for each
address and the slots written since it was last reset or removed.
-/

namespace WasixEth.Storage

open Routine BatchWriter

/-! ## Calls and what they should amount to -/

/-- The accounts of a state and the slots of each. -/
structure World where
  accounts : Address → Option TrieAccount
  storages : Address → B256 → U256

inductive BatchCall where
  | updateAccount (address : Address) (account : TrieAccount)
  | removeAccount (address : Address)
  | updateStorage (address : Address) (slot : B256) (value : U256)
  | resetStorage (address : Address)
  | markAccountTouched (address : Address)
  | account (address : Address)
  | calculateStorageRoot (address : Address)

/-- The account that a call is about. -/
def BatchCall.address : BatchCall → Address
  | .updateAccount address _ => address
  | .removeAccount address => address
  | .updateStorage address _ _ => address
  | .resetStorage address => address
  | .markAccountTouched address => address
  | .account address => address
  | .calculateStorageRoot address => address

/-- The slots that a call names. -/
def BatchCall.slots : BatchCall → List B256
  | .updateStorage _ slot _ => [slot]
  | _ => []

/-- What has been written: the last account for each address, the slots since
the last reset or removal, and whether there was one. -/
structure Overlay where
  accounts : Address → Option (Option TrieAccount)
  slots : Address → B256 → Option U256
  cleared : Address → Bool

namespace Overlay

def empty : Overlay := ⟨fun _ => none, fun _ _ => none, fun _ => false⟩

def accountAt (overlay : Overlay) (world : World) (address : Address) : Option TrieAccount :=
  (overlay.accounts address).getD (world.accounts address)

def storageAt (overlay : Overlay) (world : World) (address : Address) (slot : B256) : U256 :=
  (overlay.slots address slot).getD
    (if overlay.cleared address then 0 else world.storages address slot)

def setAccount (overlay : Overlay) (address : Address) (account : Option TrieAccount) : Overlay :=
  { overlay with accounts := Function.update overlay.accounts address (some account) }

/-- Forget the slots of an account. -/
def clear (overlay : Overlay) (address : Address) : Overlay :=
  { overlay with
    slots := Function.update overlay.slots address fun _ => none
    cleared := Function.update overlay.cleared address true }

def setSlot (overlay : Overlay) (address : Address) (slot : B256) (value : U256) : Overlay :=
  { overlay with
    slots := Function.update overlay.slots address
      (Function.update (overlay.slots address) slot (some value)) }

end Overlay

variable [Keccak256]

/-- The first write of a slot brings the account with it. -/
def Overlay.step (world : World) (overlay : Overlay) : BatchCall → Overlay
  | .updateAccount address account => overlay.setAccount address (some account)
  | .removeAccount address => (overlay.setAccount address none).clear address
  | .updateStorage address slot value =>
      let written := overlay.setSlot address slot value
      if overlay.accounts address = none then
        written.setAccount address (some ((world.accounts address).getD .blank))
      else written
  | .resetStorage address => overlay.clear address
  | _ => overlay

def Overlay.run (world : World) (overlay : Overlay) (calls : List BatchCall) : Overlay :=
  calls.foldl (Overlay.step world) overlay

/-- A storage root that a call has shown. It is stale once the account has been
removed. -/
structure Sighting where
  root : B256
  stale : Bool

/-- A batch, and for each address the storage roots last read and last
calculated. -/
structure BatchSession where
  batch : BatchWriter
  lastRead : Address → Option Sighting
  lastRoot : Address → Option Sighting

namespace BatchSession

abbrev SessionM := Routine BatchSession Bytes String

def start (batch : BatchWriter) : BatchSession := ⟨batch, fun _ => none, fun _ => none⟩

def Saw (s : BatchSession) (address : Address) (sighting : Sighting) : Prop :=
  s.lastRead address = some sighting ∨ s.lastRoot address = some sighting

def expire (address : Address) (sightings : Address → Option Sighting) :
    Address → Option Sighting :=
  Function.update sightings address
    ((sightings address).map fun sighting => { sighting with stale := true })

def onBatch {α : Type} (m : BatchM α) : SessionM α := fun s =>
  let outcome := m s.batch
  ⟨outcome.result, { s with batch := outcome.state }, outcome.log⟩

def perform (root : B256) : BatchCall → SessionM Unit
  | .updateAccount address account => onBatch (updateAccount address account)
  | .removeAccount address => do
      onBatch (removeAccount address)
      modify fun s => { s with
        lastRead := expire address s.lastRead
        lastRoot := expire address s.lastRoot }
  | .updateStorage address slot value => onBatch (updateStorage address slot value)
  | .resetStorage address => onBatch (resetStorage address)
  | .markAccountTouched address => onBatch (markAccountTouched address)
  | .account address => do
      let found ← onBatch (account address (some root))
      -- what is not there is taken for the blank account
      let sighting : Sighting := ⟨(found.getD .blank).storageRoot, false⟩
      modify fun s => { s with lastRead := Function.update s.lastRead address (some sighting) }
  | .calculateStorageRoot address => do
      let storageRoot ← onBatch (calculateStorageRoot address (some root))
      let sighting : Sighting := ⟨storageRoot, false⟩
      modify fun s => { s with lastRoot := Function.update s.lastRoot address (some sighting) }

def performAll (root : B256) : List BatchCall → SessionM Unit
  | [] => return ()
  | call :: calls => do
      perform root call
      performAll root calls

/-- Make calls, then read an account. -/
def accountAfter (root : B256) (calls : List BatchCall) (address : Address) :
    SessionM (Option TrieAccount) := do
  performAll root calls
  onBatch (account address (some root))

/-- Make calls, then read a slot. -/
def storageAfter (root : B256) (calls : List BatchCall) (address : Address) (slot : B256) :
    SessionM U256 := do
  performAll root calls
  onBatch (storage address slot (some root))

end BatchSession

end WasixEth.Storage
