import WasixEth.Engine.State

/-! # The chain manager

Questions about a block that are answered from the database, the payloads and
the block tree together. None of them changes anything.
-/

namespace WasixEth.Engine

open Storage

variable [BlockHashing] (engine : Engine) (faults : Faults)

def hasBlock (hash : B256) : Bool :=
  (engine.chain.header (faults.part 0) hash).isSome ||
    (engine.blockTree.getBlock hash).isSome ||
    (engine.chain.getPayloadByBlockHash (faults.part 1) hash).isSome

/-- The header wherever it is known from: the database, the payloads or the
block tree. -/
def getHeaderFromAnywhere (hash : B256) : Option Header :=
  (engine.chain.headerOrPayload faults hash).or
    ((engine.blockTree.getBlock hash).map (·.header))

/-! ## Ancestry -/

/-- The number of a block as the search for an ancestor looks it up. -/
def numberOf (hash : B256) : Option Nat :=
  ((engine.chain.blockNumber (faults.part 0) hash).or
    ((engine.blockTree.getBlock hash).map (·.header.number))).or
    ((engine.chain.getPayloadByBlockHash (faults.part 1) hash).map (·.block.header.number))

/-- The parent of a block and the number the parent has. -/
def parentInfo (hash : B256) : Option (B256 × Nat) :=
  let info (header : Header) := (header.parentHash, header.number - 1)
  (((engine.chain.headerOrPayload faults hash).map info).or
    ((engine.blockTree.getBlock hash).map (info ·.header))).or
    (if engine.chain.blockHash (faults.part 2) 0 = some hash then some (B256.zero, 0) else none)

/-- Search for the target from `current` back, over at most `steps` blocks. -/
def searchAncestor (target : B256) (targetNumber : Option Nat) :
    Nat → Faults → B256 → Option Nat → Bool
  | 0, _, _, _ => false
  | steps + 1, faults, current, currentNumber =>
      let continued : Bool :=
        match engine.parentInfo (faults.part 0) current with
        | none => false
        | some (parent, number) =>
            searchAncestor target targetNumber steps (faults.part 1) parent (some number)
      if current = target then true
      else if current = B256.zero then false
      else match currentNumber, targetNumber with
        | some number, some goal =>
            if number < goal then false
            else if engine.chain.isCanonical (faults.part 2) current then
              match engine.chain.blockHash (faults.part 3) goal with
              | some hash => hash = target
              | none => continued
            else continued
        | _, _ => continued

def isAncestor (head target : B256) : Bool :=
  if head = target then true
  else if target = B256.zero then true
  else
    let headNumber := engine.numberOf (faults.part 0) head
    let targetNumber := engine.numberOf (faults.part 1) target
    let searched := engine.searchAncestor target targetNumber 2048 (faults.part 2) head headNumber
    match headNumber, targetNumber with
    | some number, some goal =>
        if number < goal then false
        else if engine.chain.isCanonical (faults.part 3) target &&
            engine.chain.isCanonical (faults.part 4) head then true
        else searched
    | _, _ => searched

/-! ## The latest valid ancestor -/

/-- What is known of the first block that is not marked invalid. -/
def knownValid (current : B256) : Option B256 :=
  if engine.hasBlock (faults.part 0) current then some current
  else if engine.chain.blockHash (faults.part 1) 0 = some current then some current
  else if current = B256.zero then some B256.zero
  else none

/-- The canonical block below an invalid one, if that is its ancestor. -/
def canonicalBelow (current : B256) : Option B256 :=
  let number := ((engine.blockTree.getBlock current).map (·.header.number)).or
    ((engine.chain.headerOrPayload (faults.part 0) current).map (·.number))
  match number with
  | none => none
  | some number =>
      match engine.chain.blockHash (faults.part 1) (number - 1) with
      | none => none
      | some hash => if engine.isAncestor (faults.part 2) current hash then some hash else none

/-- Walk back through the blocks marked invalid. -/
def walkInvalid : Nat → Faults → List B256 → B256 → Option B256
  | 0, _, _, _ => none
  | steps + 1, faults, visited, current =>
      match engine.blockTree.getInvalidationReason current with
      | none => engine.knownValid (faults.part 0) current
      | some _ =>
          if current ∈ visited then none
          else match engine.canonicalBelow (faults.part 1) current with
            | some hash => some hash
            | none =>
                let parent := ((engine.blockTree.getInvalidParent current).or
                  ((engine.blockTree.getBlock current).map (·.header.parentHash))).or
                  ((engine.chain.headerOrPayload (faults.part 2) current).map (·.parentHash))
                match parent with
                | none => none
                | some parent =>
                    if parent = current then none
                    else if engine.chain.isCanonical (faults.part 3) parent then some parent
                    else walkInvalid steps (faults.part 4) (current :: visited) parent

def getLatestValidAncestor (hash : B256) : Option B256 :=
  if hash = B256.zero then some B256.zero
  else if engine.chain.isCanonical (faults.part 0) hash then some hash
  else if hash = engine.getHead.1 ∧ engine.blockTree.getInvalidationReason hash = none then
    some hash
  else if engine.blockTree.getInvalidationReason hash = none ∧
      (engine.knownValid (faults.part 1) hash).isSome then some hash
  -- The walk stops once it has visited 1024 blocks.
  else engine.walkInvalid 1024 (faults.part 2) [] hash

/-! ## Payload status -/

/-- `determine_payload_status` of the chain manager. -/
def chainPayloadStatus (hash : B256) : PayloadStatus :=
  if (engine.blockTree.getInvalidationReason hash).isSome then
    ⟨.invalid "Block is known to be invalid", engine.getLatestValidAncestor (faults.part 0) hash⟩
  else if (engine.chain.headerOrPayload (faults.part 1) hash).isSome then ⟨.valid, some hash⟩
  else ⟨.syncing, none⟩

/-- `determine_payload_status` of the engine: a block whose body is stored is
valid whatever the block tree says. -/
def determinePayloadStatus (hash : B256) : PayloadStatus :=
  if (engine.chain.blockBodyByHash (faults.part 0) hash).isSome then ⟨.valid, some hash⟩
  else engine.chainPayloadStatus (faults.part 1) hash

end WasixEth.Engine
